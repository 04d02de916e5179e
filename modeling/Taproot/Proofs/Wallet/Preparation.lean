import Mathlib.Data.List.Forall2
import Taproot.Proofs.Result
import Taproot.Wallet.Assembly

/-! # The prepared transaction

What an operation answers, step by step, and all that holds of a transaction that was prepared: its
utxos and descriptors are those of the draft in the order of their indices, every descriptor has its
commitment, and the wallet is as it was.
-/
namespace Taproot

theorem mapM_eq_ok {ε α β : Type} {f : α → Except ε β} {xs : List α} {ys : List β} :
    xs.mapM f = .ok ys ↔ List.Forall₂ (fun x y => f x = .ok y) xs ys := by
  induction xs generalizing ys with
  | nil => rw [List.mapM_nil, pure_eq_ok, List.forall₂_nil_left_iff, eq_comm]
  | cons x xs ih =>
    simp only [List.mapM_cons, bind_eq_ok, pure_eq_ok, ih, List.forall₂_cons_left_iff]
    constructor
    · rintro ⟨y, hy, zs, hzs, rfl⟩
      exact ⟨y, zs, hy, hzs, rfl⟩
    · rintro ⟨y, zs, hy, hzs, rfl⟩
      exact ⟨y, hy, zs, hzs, rfl⟩

theorem exists_of_mapM_eq_error {ε α β : Type} {f : α → Except ε β} {xs : List α} {e : ε}
    (h : xs.mapM f = .error e) : ∃ x ∈ xs, f x = .error e := by
  induction xs with
  | nil => cases h
  | cons x xs ih =>
    simp only [List.mapM_cons, bind_eq_error] at h
    rcases h with h | ⟨y, -, h | ⟨ys, -, h⟩⟩
    · exact ⟨x, List.mem_cons_self, h⟩
    · obtain ⟨x', hx', he⟩ := ih h
      exact ⟨x', List.mem_cons_of_mem x hx', he⟩
    · cases h

theorem forall₂_getElem? {α β : Type} {R : α → β → Prop} {xs : List α} {ys : List β}
    (h : List.Forall₂ R xs ys) {i : Nat} {y : β} (hy : ys[i]? = some y) :
    ∃ x, xs[i]? = some x ∧ R x y := by
  induction h generalizing i with
  | nil => simp at hy
  | @cons x y' xs ys hxy _ ih =>
    cases i with
    | zero =>
      obtain rfl : y' = y := by simpa using hy
      exact ⟨x, rfl, hxy⟩
    | succ i => exact ih (by simpa using hy)

theorem forall₂_mem {α β : Type} {R : α → β → Prop} {xs : List α} {ys : List β}
    (h : List.Forall₂ R xs ys) {y : β} (hy : y ∈ ys) : ∃ x ∈ xs, R x y := by
  obtain ⟨i, hi⟩ := List.mem_iff_getElem?.mp hy
  obtain ⟨x, hx, hr⟩ := forall₂_getElem? h hi
  exact ⟨x, List.mem_of_getElem? hx, hr⟩

theorem mapError_eq_ok {ε ε' α : Type} {x : Except ε α} {f : ε → ε'} {a : α} :
    x.mapError f = .ok a ↔ x = .ok a := by
  cases x <;> simp [Except.mapError]

namespace Operation

variable {α β ε : Type} {s t : Session}

/-- The operation answers `x` and leaves the session `t`. -/
def Answers (a : Operation α) (s : Session) (x : α) (t : Session) : Prop := runOn a s = (.ok x, t)

theorem Answers.unique {a : Operation α} {x y : α} {r : Session} (h : Answers a s x r)
    (h' : Answers a s y t) : x = y ∧ r = t := by
  have heq := h.symm.trans h'
  exact ⟨Except.ok.inj (Prod.mk.inj heq).1, (Prod.mk.inj heq).2⟩

theorem answers_pure {x y : α} : Answers (pure x) s y t ↔ x = y ∧ s = t := by
  simp [Answers]

theorem not_answers_throw {e : WalletError} {x : α} : ¬ Answers (throw e) s x t := by
  simp [Answers]

theorem answers_bind {a : Operation α} {f : α → Operation β} {y : β} :
    Answers (a >>= f) s y t ↔ ∃ x r, Answers a s x r ∧ Answers (f x) r y t := by
  simp only [Answers, runOn_bind]
  rcases runOn a s with ⟨e | x, r⟩
  · simp
  · constructor
    · intro h
      exact ⟨x, r, rfl, h⟩
    · rintro ⟨x', r', he, h⟩
      cases he
      exact h

theorem Answers.bind {r : Session} {a : Operation α} {f : α → Operation β} {x : α} {y : β}
    (ha : Answers a s x r) (hf : Answers (f x) r y t) : Answers (a >>= f) s y t :=
  answers_bind.mpr ⟨x, r, ha, hf⟩

theorem answers_ofExcept {wrap : ε → WalletError} {r : Except ε α} {x : α} :
    Answers (ofExcept wrap r) s x t ↔ r = .ok x ∧ s = t := by
  cases r with
  | error e => simp [Answers]
  | ok y => simp [Answers]

theorem answers_wallet {w : Wallet} : Answers wallet s w t ↔ s.wallet = w ∧ s = t := by
  simp [Answers]

theorem answers_inform {n : Notice} {u : Unit} :
    Answers (inform n) s u t ↔ { s with notices := s.notices ++ [n] } = t := by
  simp [Answers]

theorem answers_write {ns : List Int} {x : Unit} :
    Answers (write ns) s x t ↔ (∀ n ∈ ns, Text.isWritable n = true) ∧ s = t := by
  unfold write
  split
  · rename_i h
    rw [answers_pure]
    exact ⟨fun ⟨_, he⟩ => ⟨List.all_eq_true.mp h, he⟩, fun ⟨_, he⟩ => ⟨rfl, he⟩⟩
  · rename_i h
    exact ⟨fun ha => absurd ha not_answers_throw, fun ⟨hall, _⟩ => absurd (List.all_eq_true.mpr hall) h⟩

theorem answers_announce {n : Notice} {x : Unit} :
    Answers (announce n) s x t ↔ (∀ i ∈ n.numbers, Text.isWritable i = true) ∧
      { s with notices := s.notices ++ [n] } = t := by
  simp only [announce, answers_bind, answers_write, answers_inform]
  constructor
  · rintro ⟨-, -, ⟨hn, rfl⟩, rfl⟩
    exact ⟨hn, rfl⟩
  · rintro ⟨hn, rfl⟩
    exact ⟨(), s, ⟨hn, rfl⟩, rfl⟩

theorem not_answers_refuse {e : WalletError} {x : α} : ¬ Answers (refuse e) s x t := by
  rw [refuse, answers_bind]
  rintro ⟨-, r, -, h⟩
  exact not_answers_throw h

/-! ## Commitments -/

/-- The session differs in its notices only. -/
def SameBut (s t : Session) : Prop := t.wallet = s.wallet ∧ t.entropy = s.entropy

/-- The session after commitments of which notice was given. -/
def afterCommitments (s : Session) (cs : List Commitment) : Session :=
  { s with notices := s.notices ++ cs.map fun c => .committed c.leaves.length c.output.key.hex }

theorem sameBut_afterCommitments (s : Session) (cs : List Commitment) :
    SameBut s (afterCommitments s cs) := ⟨rfl, rfl⟩

theorem afterCommitments_append (s : Session) (cs ds : List Commitment) :
    afterCommitments (afterCommitments s cs) ds = afterCommitments s (cs ++ ds) := by
  simp [afterCommitments]

theorem answers_commit {d : Descriptor} {c : Commitment} :
    Answers (commit d) s c t ↔ d.commit = .ok c ∧ t = afterCommitments s [c] := by
  simp only [commit, answers_bind, answers_ofExcept, answers_inform, answers_pure]
  constructor
  · rintro ⟨_, _, ⟨hc, rfl⟩, _, _, rfl, rfl, rfl⟩
    exact ⟨hc, rfl⟩
  · rintro ⟨hc, rfl⟩
    exact ⟨c, s, ⟨hc, rfl⟩, (), _, rfl, rfl, rfl⟩

theorem answers_mapM_commit {ds : List Descriptor} {cs : List Commitment} :
    Answers (ds.mapM commit) s cs t ↔
      List.Forall₂ (fun d c => d.commit = .ok c) ds cs ∧ t = afterCommitments s cs := by
  induction ds generalizing s t cs with
  | nil =>
    rw [List.mapM_nil, answers_pure, List.forall₂_nil_left_iff]
    constructor
    · rintro ⟨rfl, rfl⟩
      exact ⟨rfl, by simp [afterCommitments]⟩
    · rintro ⟨rfl, rfl⟩
      exact ⟨rfl, by simp [afterCommitments]⟩
  | cons d ds ih =>
    simp only [List.mapM_cons, answers_bind, answers_pure, answers_commit, ih,
      List.forall₂_cons_left_iff]
    constructor
    · rintro ⟨c, _, ⟨hc, rfl⟩, cs, _, ⟨hcs, rfl⟩, rfl, rfl⟩
      exact ⟨⟨c, cs, hc, hcs, rfl⟩, by rw [afterCommitments_append]; rfl⟩
    · rintro ⟨⟨c, cs, hc, hcs, rfl⟩, rfl⟩
      exact ⟨c, _, ⟨hc, rfl⟩, cs, _, ⟨hcs, rfl⟩, rfl, by rw [afterCommitments_append]; rfl⟩

end Operation

/-! ## Spending -/

/-- The entries of the draft by ascending index, as they are spent and paid to. -/
structure Spending.Resolves (w : Wallet) (s : Spending) : Prop where
  timelocks : w.draft.timelocks? = some s.timelocks
  indices : w.draft.checkIndices = .ok ()
  utxos : List.Forall₂ (fun e u => e.2.utxo = some u) w.draft.inputs.sorted s.utxos
  inputs : List.Forall₂ (fun u d => Descriptor.read w.store u.descriptor = .ok d) s.utxos s.inputs
  outputs : List.Forall₂ (fun e d => Descriptor.read w.store e.2.descriptor = .ok d)
    w.draft.outputs.sorted s.outputs

theorem Draft.boundUtxos_eq_ok {d : Draft} {us : List Utxo} : d.boundUtxos = .ok us ↔
    List.Forall₂ (fun e u => e.2.utxo = some u) d.inputs.sorted us := by
  rw [boundUtxos, mapM_eq_ok]
  constructor
  · intro h
    refine h.imp fun e u he => ?_
    cases hu : e.2.utxo <;> simp_all
  · intro h
    refine h.imp fun e u he => ?_
    obtain ⟨index, i⟩ := e
    simp only at he ⊢
    rw [he]

theorem Wallet.readDescriptor_eq_ok {w : Wallet} {text : String} {d : Descriptor} :
    w.readDescriptor text = .ok d ↔ Descriptor.read w.store text = .ok d := mapError_eq_ok

theorem Wallet.spending_eq_ok {w : Wallet} {s : Spending} :
    w.spending = .ok s ↔ s.Resolves w := by
  unfold Wallet.spending
  dsimp only
  constructor
  · intro h
    split at h
    · cases h
    · rename_i timelocks ht
      simp only [bind_eq_ok, pure_eq_ok, mapM_eq_ok, readDescriptor_eq_ok,
        Draft.boundUtxos_eq_ok, Slots.values, List.forall₂_map_left_iff] at h
      obtain ⟨⟨⟩, hi, us, hu, ins, hins, outs, houts, rfl⟩ := h
      exact ⟨ht, hi, hu, hins, houts⟩
  · intro h
    simp only [h.timelocks, bind_eq_ok, pure_eq_ok, mapM_eq_ok, readDescriptor_eq_ok,
      Draft.boundUtxos_eq_ok, Slots.values, List.forall₂_map_left_iff]
    exact ⟨(), h.indices, s.utxos, h.utxos, s.inputs, h.inputs, s.outputs, h.outputs, rfl⟩

/-! ## The transaction -/

namespace Operation

variable {s t : Session} {u : Unsigned}

/-- A preparation resolves the draft, commits to its descriptors and finds the values. -/
theorem answers_prepare : Answers prepare s u t ↔
    ∃ (sp : Spending) (ins outs : List Commitment) (values : List Nat), sp.Resolves s.wallet ∧
    List.Forall₂ (fun d c => d.commit = .ok c) sp.inputs ins ∧
    List.Forall₂ (fun d c => d.commit = .ok c) sp.outputs outs ∧
    s.wallet.draft.outputValues sp.available = .ok values ∧ u = sp.toUnsigned values ins outs ∧
    t = afterCommitments s (ins ++ outs) := by
  simp only [prepare, answers_bind, answers_wallet, answers_ofExcept, answers_pure,
    answers_mapM_commit, Wallet.spending_eq_ok]
  constructor
  · rintro ⟨_, _, ⟨rfl, rfl⟩, sp, _, ⟨hs, rfl⟩, ins, _, ⟨hi, rfl⟩, outs, _, ⟨ho, rfl⟩, values, _,
      ⟨hv, rfl⟩, rfl, rfl⟩
    exact ⟨sp, ins, outs, values, hs, hi, ho, hv, rfl, afterCommitments_append s ins outs⟩
  · rintro ⟨sp, ins, outs, values, hs, hi, ho, hv, rfl, rfl⟩
    exact ⟨_, _, ⟨rfl, rfl⟩, sp, _, ⟨hs, rfl⟩, ins, _, ⟨hi, rfl⟩, outs, _, ⟨ho, rfl⟩, values, _,
      ⟨hv, rfl⟩, rfl, afterCommitments_append s ins outs⟩

end Operation

/-- All that a preparation of the wallet's draft comes to. -/
structure Unsigned.Prepared (w : Wallet) (u : Unsigned) : Prop where
  resolves : u.spending.Resolves w
  commitments : List.Forall₂ (fun d c => d.commit = .ok c) u.spending.inputs u.commitments
  assembled : ∃ values outputs, w.draft.outputValues u.spending.available = .ok values ∧
    List.Forall₂ (fun d c => d.commit = .ok c) u.spending.outputs outputs ∧
    u = u.spending.toUnsigned values u.commitments outputs

theorem Operation.Answers.prepared {s t : Session} {u : Unsigned} (h : Answers prepare s u t) :
    SameBut s t ∧ u.Prepared s.wallet := by
  obtain ⟨sp, ins, outs, values, hs, hi, ho, hv, rfl, rfl⟩ := answers_prepare.mp h
  exact ⟨sameBut_afterCommitments s _, hs, hi, values, outs, hv, ho, rfl⟩

namespace Unsigned.Prepared

variable {w : Wallet} {u : Unsigned}

theorem inputs_eq (h : u.Prepared w) : u.transaction.inputs = u.spending.txIns := by
  obtain ⟨values, outputs, -, -, he⟩ := h.assembled
  rw [he]
  rfl

theorem spent_eq (h : u.Prepared w) :
    u.spent = Spending.txOuts (u.spending.utxos.map Utxo.value) u.commitments := by
  obtain ⟨values, outputs, -, -, he⟩ := h.assembled
  rw [he]
  rfl

theorem version_eq (h : u.Prepared w) : u.transaction.version = 2 := by
  obtain ⟨values, outputs, -, -, he⟩ := h.assembled
  rw [he]
  rfl

theorem locktime_eq (h : u.Prepared w) :
    u.transaction.locktime = u.spending.timelocks.nLockTime := by
  obtain ⟨values, outputs, -, -, he⟩ := h.assembled
  rw [he]
  rfl

/-- There are as many inputs as utxos, and each is the one of its utxo. -/
theorem getElem?_inputs (h : u.Prepared w) (i : Nat) : u.transaction.inputs[i]? =
    u.spending.utxos[i]?.map fun v =>
      TxIn.mk v.txid.bytes v.vout (u.spending.timelocks.sequence i) [] [] := by
  rw [h.inputs_eq, Spending.txIns, List.getElem?_mapIdx]

theorem length_commitments (h : u.Prepared w) :
    u.commitments.length = u.transaction.inputs.length := by
  rw [h.inputs_eq, Spending.txIns, List.length_mapIdx, ← h.commitments.length_eq,
    ← h.resolves.inputs.length_eq]

end Unsigned.Prepared
end Taproot
