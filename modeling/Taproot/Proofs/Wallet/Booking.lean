import Taproot.Proofs.Wallet.Effects

/-! # Booking a transaction

All that is done to the wallet when a draft is booked: the outputs that it spends are forgotten,
those of the transaction are recorded, and the draft is cleared. It is refused only where an integer
has more digits than are written.
-/
namespace Taproot

namespace Wallet

/-- The wallet with an output recorded, where none is recorded at its outpoint. -/
def added (w : Wallet) (u : Utxo) : Wallet :=
  match w.utxos.find? fun v => v.outpoint == u.outpoint with
  | some _ => w
  | none => { w with utxos := w.utxos ++ [u] }

/-- An output is either known already or joins the end of the records. -/
theorem added_cases (w : Wallet) (u : Utxo) :
    (w.added u = w ∧ ∃ v ∈ w.utxos, v.outpoint = u.outpoint) ∨
    (w.added u = { w with utxos := w.utxos ++ [u] } ∧ ∀ v ∈ w.utxos, v.outpoint ≠ u.outpoint) := by
  unfold added
  cases h : w.utxos.find? fun v => v.outpoint == u.outpoint with
  | some v =>
    exact .inl ⟨rfl, v, List.mem_of_find?_eq_some h, by simpa using List.find?_some h⟩
  | none => exact .inr ⟨rfl, by simpa using h⟩

theorem added_of_fresh {w : Wallet} {u : Utxo} (h : ∀ v ∈ w.utxos, v.outpoint ≠ u.outpoint) :
    w.added u = { w with utxos := w.utxos ++ [u] } := by
  rcases w.added_cases u with ⟨-, v, hv, he⟩ | ⟨ha, -⟩
  · exact absurd he (h v hv)
  · exact ha

theorem store_added (w : Wallet) (u : Utxo) : (w.added u).store = w.store := by
  rcases w.added_cases u with ⟨h, -⟩ | ⟨h, -⟩ <;> rw [h]

theorem draft_added (w : Wallet) (u : Utxo) : (w.added u).draft = w.draft := by
  rcases w.added_cases u with ⟨h, -⟩ | ⟨h, -⟩ <;> rw [h]

theorem added_withDraft (w : Wallet) (d : Draft) (u : Utxo) :
    added { w with draft := d } u = { w.added u with draft := d } := by
  unfold added
  cases w.utxos.find? fun v => v.outpoint == u.outpoint <;> rfl

theorem mem_added {w : Wallet} {u v : Utxo} (h : v ∈ w.utxos) : v ∈ (w.added u).utxos := by
  rcases w.added_cases u with ⟨ha, -⟩ | ⟨ha, -⟩
  · rwa [ha]
  · rw [ha]
    exact List.mem_append_left _ h

theorem mem_foldl_added {w : Wallet} {us : List Utxo} {v : Utxo} (h : v ∈ w.utxos) :
    v ∈ (us.foldl added w).utxos := by
  induction us generalizing w with
  | nil => exact h
  | cons u us ih => exact ih (mem_added h)

/-- The draft does not matter to what is recorded. -/
theorem foldl_added_withDraft (w : Wallet) (d : Draft) (us : List Utxo) :
    us.foldl added { w with draft := d } = { us.foldl added w with draft := d } := by
  induction us generalizing w with
  | nil => rfl
  | cons u us ih => rw [List.foldl_cons, List.foldl_cons, added_withDraft, ih]

end Wallet

/-- The integers of the output can be written. -/
structure Utxo.Writable (u : Utxo) : Prop where
  vout : Text.isWritable u.vout = true
  value : Text.isWritable u.value = true

/-- The places of the records can be written. -/
def Wallet.PlacesWritable (w : Wallet) : Prop := ∀ v ∈ w.utxos, Text.isWritable v.vout = true

theorem Wallet.PlacesWritable.added {w : Wallet} (h : w.PlacesWritable) {u : Utxo}
    (hu : Text.isWritable u.vout = true) : (w.added u).PlacesWritable := by
  rcases w.added_cases u with ⟨ha, -⟩ | ⟨ha, -⟩
  · rwa [ha]
  · rw [ha]
    intro v hv
    rcases List.mem_append.mp hv with hv | hv
    · exact h v hv
    · obtain rfl := List.mem_singleton.mp hv
      exact hu

/-- Outputs of a transaction as they are recorded from an index on. -/
def outputRecords (txid : Bytes) : (index : Nat) → List (Nat × Descriptor) → List Utxo
  | _, [] => []
  | index, (value, d) :: rest =>
    ⟨.ofBytes txid, index, value, d.text⟩ :: outputRecords txid (index + 1) rest

theorem mem_outputRecords {txid : Bytes} {index : Nat} {ps : List (Nat × Descriptor)} {r : Utxo}
    (h : r ∈ outputRecords txid index ps) :
    r.vout < index + ps.length ∧
      ∃ p ∈ ps, r.txid = .ofBytes txid ∧ r.value = p.1 ∧ r.descriptor = p.2.text := by
  induction ps generalizing index with
  | nil => cases h
  | cons p ps ih =>
    rw [List.length_cons]
    rcases List.mem_cons.mp h with rfl | h
    · exact ⟨by dsimp only; omega, p, List.mem_cons_self, rfl, rfl, rfl⟩
    · obtain ⟨hv, q, hq, hr⟩ := ih h
      exact ⟨by omega, q, List.mem_cons_of_mem p hq, hr⟩

namespace Unsigned

/-- The values of the outputs beside the descriptors that they pay to. -/
def payments (u : Unsigned) : List (Nat × Descriptor) :=
  (u.transaction.outputs.map fun o => o.value.toNat).zip u.spending.outputs

/-- The outputs of the transaction as they are recorded. -/
def records (u : Unsigned) (txid : Bytes) : List Utxo := outputRecords txid 0 u.payments

/-- The outpoint is that of an output which the transaction spends. -/
def spends (u : Unsigned) (outpoint : String) : Bool :=
  (u.spending.utxos.map Utxo.outpoint).contains outpoint

/-- The places that are compared and given where the transaction is booked can be written. -/
structure Bookable (u : Unsigned) (w : Wallet) : Prop where
  spent : ∀ v ∈ u.spending.utxos, Text.isWritable v.vout = true
  recorded : w.PlacesWritable
  created : Text.isWritable u.transaction.outputs.length = true

end Unsigned

/-- The draft in which the first of the outputs is spent next. -/
def Draft.chained : List Utxo → Draft
  | [] => {}
  | u :: _ => { inputs := [(0, { utxo := some u })] }

namespace Wallet

/-- The records after a booking. -/
def bookedRecords (w : Wallet) (u : Unsigned) (txid : Bytes) : Wallet :=
  (u.records txid).foldl added { w with utxos := w.utxos.filter fun v => !u.spends v.outpoint }

/-- What a booking answers, and the wallet after it. -/
structure Booked (w : Wallet) (u : Unsigned) (txid : Bytes) (chain : Bool) (created : List Utxo)
    (w' : Wallet) : Prop where
  recorded : List.Forall₂ (fun r c => c ∈ w'.utxos ∧ c.outpoint = r.outpoint)
    (u.records txid) created
  wallet : w' = { w.bookedRecords u txid with
    draft := if chain then Draft.chained created else {} }

end Wallet

namespace Operation

variable {s t : Session}

theorem answers_edit {f : Wallet → Wallet} {x : Unit} :
    Answers (edit f) s x t ↔ { s with wallet := f s.wallet } = t := by
  simp [Answers]

theorem answers_findSame {u : Utxo} {vs : List Utxo} {r : Option Utxo}
    (h : Answers (findSame u vs) s r t) : vs.find? (fun v => v.outpoint == u.outpoint) = r ∧ s = t := by
  induction vs with
  | nil => exact answers_pure.mp h
  | cons v vs ih =>
    obtain ⟨_, _, hw, h⟩ := answers_bind.mp h
    obtain ⟨-, rfl⟩ := answers_write.mp hw
    rw [List.find?_cons]
    split at h
    · rename_i hv
      rw [hv]
      exact answers_pure.mp h
    · rename_i hv
      rw [Bool.eq_false_iff.mpr hv]
      exact ih h

/-- The outpoints are compared, where all of them can be written. -/
theorem findSame_answers {u : Utxo} {vs : List Utxo} (hu : Text.isWritable u.vout = true)
    (hvs : ∀ v ∈ vs, Text.isWritable v.vout = true) :
    Answers (findSame u vs) s (vs.find? fun v => v.outpoint == u.outpoint) s := by
  induction vs with
  | nil => exact answers_pure.mpr ⟨rfl, rfl⟩
  | cons v vs ih =>
    have hboth : Answers (write [v.vout, u.vout]) s () s :=
      answers_write.mpr ⟨by simp [hvs v List.mem_cons_self, hu], rfl⟩
    refine hboth.bind ?_
    rw [List.find?_cons]
    cases hsame : v.outpoint == u.outpoint with
    | true =>
      rw [if_pos rfl]
      exact answers_pure.mpr ⟨rfl, rfl⟩
    | false =>
      rw [if_neg Bool.false_ne_true]
      exact ih fun v' hv' => hvs v' (List.mem_cons_of_mem v hv')

/-- Whether it is answered or not, the records stay or the output is added to them. -/
theorem takes_addUtxo {R : Wallet → Wallet → Prop} [IsTrans Wallet R] [Std.Refl R] {u : Utxo}
    (h : R s.wallet (s.wallet.added u)) : Takes R (addUtxo u) s := by
  refine reads_wallet.takes.bind fun w t hw => ?_
  obtain ⟨rfl, rfl⟩ := answers_wallet.mp hw
  refine (reads_findSame u _).takes.bind fun r t hr => ?_
  obtain ⟨hfind, rfl⟩ := answers_findSame hr
  cases r with
  | some v => exact (reads_pure v).takes
  | none =>
    rw [Wallet.added, hfind] at h
    exact (takes_edit h).bind fun _ _ _ => ((reads_write _).bind fun _ =>
      (reads_announce _).bind fun _ => reads_pure u).takes

theorem wallet_addUtxo (u : Utxo) (s : Session) :
    (runOn (addUtxo u) s).2.wallet = s.wallet ∨
      (runOn (addUtxo u) s).2.wallet = s.wallet.added u := by
  let R : Wallet → Wallet → Prop := fun w w' => w' = w ∨ w' = s.wallet.added u
  have : Std.Refl R := ⟨fun _ => .inl rfl⟩
  have : IsTrans Wallet R := ⟨fun _ _ _ h h' => h'.elim (fun he => he ▸ h) .inr⟩
  exact takes_addUtxo (R := R) (.inr rfl)

/-- What is answered for an output is on record. -/
theorem Answers.wallet_addUtxo {u c : Utxo} (h : Answers (addUtxo u) s c t) :
    t.wallet = s.wallet.added u ∧ c ∈ t.wallet.utxos ∧ c.outpoint = u.outpoint := by
  simp only [addUtxo, answers_bind, answers_wallet] at h
  obtain ⟨_, _, ⟨rfl, rfl⟩, r, _, hr, h⟩ := h
  obtain ⟨hfind, rfl⟩ := answers_findSame hr
  cases r with
  | some v =>
    obtain ⟨rfl, rfl⟩ := answers_pure.mp h
    rw [Wallet.added, hfind]
    exact ⟨rfl, List.mem_of_find?_eq_some hfind, by simpa using List.find?_some hfind⟩
  | none =>
    simp only [answers_bind, answers_edit, writeOutpoints, answers_write, answers_announce,
      answers_pure] at h
    obtain ⟨_, _, rfl, _, _, ⟨-, rfl⟩, _, _, ⟨-, rfl⟩, rfl, rfl⟩ := h
    rw [Wallet.added, hfind]
    exact ⟨rfl, List.mem_append_right _ List.mem_cons_self, rfl⟩

/-- An output is recorded, where its integers and the places of the records can be written. -/
theorem exists_answers_addUtxo {u : Utxo} (hu : u.Writable) (hs : s.wallet.PlacesWritable) :
    ∃ c t, Answers (addUtxo u) s c t := by
  have hwallet : Answers wallet s s.wallet s := answers_wallet.mpr ⟨rfl, rfl⟩
  have hsame := findSame_answers (s := s) hu.vout hs
  cases hr : s.wallet.utxos.find? fun v => v.outpoint == u.outpoint with
  | some v =>
    rw [hr] at hsame
    exact ⟨v, s, hwallet.bind (hsame.bind (answers_pure.mpr ⟨rfl, rfl⟩))⟩
  | none =>
    rw [hr] at hsame
    let kept : Session :=
      { s with wallet := { s.wallet with utxos := s.wallet.utxos ++ [u] } }
    let notice := Notice.newUtxo s.wallet.utxos.length u.outpoint u.value
    let noticed : Session := { kept with notices := kept.notices ++ [notice] }
    have hadd : Answers (edit fun w => { w with utxos := s.wallet.utxos ++ [u] }) s () kept :=
      answers_edit.mpr rfl
    have hplace : Answers (writeOutpoints [u]) kept () kept :=
      answers_write.mpr ⟨by simp [hu.vout], rfl⟩
    have hnotice : Answers (announce notice) kept () noticed :=
      answers_announce.mpr ⟨by simp [notice, Notice.numbers, hu.value], rfl⟩
    have hanswer : Answers (pure u) noticed u noticed := answers_pure.mpr ⟨rfl, rfl⟩
    exact ⟨u, noticed,
      hwallet.bind (hsame.bind (hadd.bind (hplace.bind (hnotice.bind hanswer))))⟩

theorem Answers.wallet_recordOutputs {txid : Bytes} {index : Nat} {ps : List (Nat × Descriptor)}
    {cs : List Utxo} (h : Answers (recordOutputs txid index ps) s cs t) :
    t.wallet = (outputRecords txid index ps).foldl Wallet.added s.wallet ∧
      List.Forall₂ (fun r c => c ∈ t.wallet.utxos ∧ c.outpoint = r.outpoint)
        (outputRecords txid index ps) cs := by
  induction ps generalizing index s cs with
  | nil =>
    obtain ⟨rfl, rfl⟩ := answers_pure.mp h
    exact ⟨rfl, .nil⟩
  | cons p ps ih =>
    obtain ⟨value, d⟩ := p
    obtain ⟨c, r, hc, h⟩ := answers_bind.mp h
    obtain ⟨cs', t', hcs, h⟩ := answers_bind.mp h
    obtain ⟨rfl, rfl⟩ := answers_pure.mp h
    obtain ⟨hr, hm, he⟩ := hc.wallet_addUtxo
    obtain ⟨ht, hms⟩ := ih hcs
    refine ⟨by rw [ht, hr]; rfl, .cons ⟨?_, he⟩ hms⟩
    rw [ht]
    exact Wallet.mem_foldl_added hm

theorem exists_answers_recordOutputs {txid : Bytes} {index : Nat} {ps : List (Nat × Descriptor)}
    (hr : ∀ r ∈ outputRecords txid index ps, r.Writable) (hs : s.wallet.PlacesWritable) :
    ∃ cs t, Answers (recordOutputs txid index ps) s cs t := by
  induction ps generalizing index s with
  | nil => exact ⟨[], s, answers_pure.mpr ⟨rfl, rfl⟩⟩
  | cons p ps ih =>
    obtain ⟨value, d⟩ := p
    have hfirst := hr _ List.mem_cons_self
    obtain ⟨c, r, hc⟩ := exists_answers_addUtxo hfirst hs
    have hw : r.wallet.PlacesWritable := by
      rw [hc.wallet_addUtxo.1]
      exact hs.added hfirst.vout
    obtain ⟨cs, t, hcs⟩ := ih (fun r' hr' => hr r' (List.mem_cons_of_mem _ hr')) hw
    exact ⟨c :: cs, t, hc.bind (hcs.bind (answers_pure.mpr ⟨rfl, rfl⟩))⟩

/-- Books a prepared transaction of an id. -/
def book (u : Unsigned) (txid : Bytes) (chain : Bool) : Operation (List Utxo) := do
  edit fun w => { w with utxos := w.utxos.filter fun v => !u.spends v.outpoint }
  let created ← recordOutputs txid 0 u.payments
  edit fun w => { w with draft := {} }
  if chain then chainFirst created
  inform (.finalized txid.hex)
  return created

/-- The id that is given, where there is one, is the one of the transaction. -/
def checkTxid (given : Option String) (txid : Bytes) : Operation Unit :=
  match given with
  | some text =>
    if Text.lower (Text.strip text) ≠ txid.hex then throw (.otherTxid txid.hex text) else pure ()
  | none => pure ()

/-- Every place that a booking compares or shows is written before it. -/
def writePlaces (u : Unsigned) : Operation Unit := do
  writeOutpoints u.spending.utxos
  writeOutpoints (← wallet).utxos
  write [(u.transaction.outputs.length : Int)]

theorem finalize_eq (given : Option String) (chain : Bool) : finalize given chain = (do
    let u ← prepare
    let txid ← ofExcept .encoding u.transaction.txid
    checkTxid given txid
    writePlaces u
    book u txid chain) := by
  unfold finalize checkTxid writePlaces book
  congr 1
  funext u
  congr 1
  funext txid
  cases given with
  | none => simp only [bind_assoc]; rfl
  | some text =>
    dsimp only
    split
    · rfl
    · simp only [bind_assoc]; rfl

theorem reads_checkTxid (given : Option String) (txid : Bytes) : Reads (checkTxid given txid) := by
  unfold checkTxid
  split
  · split
    · exact reads_throw _
    · exact reads_pure _
  · exact reads_pure _

theorem answers_checkTxid {given : Option String} {txid : Bytes} {x : Unit} :
    Answers (checkTxid given txid) s x t ↔
      (∀ text ∈ given, Text.lower (Text.strip text) = txid.hex) ∧ s = t := by
  cases given with
  | none =>
    rw [checkTxid, answers_pure]
    exact and_congr_left' (iff_of_true rfl nofun)
  | some text =>
    rw [checkTxid]
    split
    · rename_i hne
      exact iff_of_false not_answers_throw fun h => hne (h.1 text rfl)
    · rename_i hsame
      rw [answers_pure]
      refine and_congr_left' (iff_of_true rfl ?_)
      rintro text ⟨⟩
      exact not_not.mp hsame

theorem reads_writePlaces (u : Unsigned) : Reads (writePlaces u) :=
  (reads_write _).bind fun _ => reads_wallet.bind fun _ => (reads_write _).bind fun _ =>
    reads_write _

theorem answers_writePlaces {u : Unsigned} {x : Unit} :
    Answers (writePlaces u) s x t ↔ u.Bookable s.wallet ∧ s = t := by
  simp only [writePlaces, writeOutpoints, answers_bind, answers_write, answers_wallet]
  constructor
  · rintro ⟨_, _, ⟨hu, rfl⟩, _, _, ⟨rfl, rfl⟩, _, _, ⟨hw, rfl⟩, hn, rfl⟩
    exact ⟨⟨by simpa using hu, by simpa [Wallet.PlacesWritable] using hw, by simpa using hn⟩, rfl⟩
  · rintro ⟨⟨hu, hw, hn⟩, rfl⟩
    exact ⟨(), s, ⟨by simpa using hu, rfl⟩, _, _, ⟨rfl, rfl⟩, (), s,
      ⟨by simpa [Wallet.PlacesWritable] using hw, rfl⟩, by simpa using hn, rfl⟩

theorem exists_answers_chainFirst (cs : List Utxo) : ∃ t, Answers (chainFirst cs) s () t := by
  cases cs with
  | nil => exact ⟨s, answers_pure.mpr ⟨rfl, rfl⟩⟩
  | cons u us =>
    exact ⟨_, (answers_edit (x := ()).mpr rfl).bind (answers_inform.mpr rfl)⟩

theorem Answers.wallet_chainFirst {cs : List Utxo} {x : Unit} (h : Answers (chainFirst cs) s x t)
    (hd : s.wallet.draft = {}) : t.wallet = { s.wallet with draft := Draft.chained cs } := by
  cases cs with
  | nil =>
    obtain ⟨-, rfl⟩ := answers_pure.mp h
    rw [Draft.chained, ← hd]
  | cons u us =>
    simp only [chainFirst, answers_bind, answers_edit, answers_inform] at h
    obtain ⟨_, _, rfl, rfl⟩ := h
    rw [hd]
    rfl

/-- What a booking leaves where it is answered. -/
theorem Answers.booked_wallet {u : Unsigned} {txid : Bytes} {chain : Bool} {cs : List Utxo}
    (h : Answers (book u txid chain) s cs t) : s.wallet.Booked u txid chain cs t.wallet := by
  obtain ⟨_, kept, hkept, h⟩ := answers_bind.mp h
  obtain ⟨created, r, hr, h⟩ := answers_bind.mp h
  obtain ⟨_, cleared, hcleared, h⟩ := answers_bind.mp h
  obtain rfl := answers_edit.mp hkept
  obtain rfl := answers_edit.mp hcleared
  obtain ⟨hw, hm⟩ := hr.wallet_recordOutputs
  cases chain with
  | false =>
    obtain ⟨_, _, hn, h⟩ := answers_bind.mp h
    obtain rfl := answers_inform.mp hn
    obtain ⟨rfl, rfl⟩ := answers_pure.mp h
    exact ⟨hm, by rw [hw]; rfl⟩
  | true =>
    obtain ⟨_, t', hc, h⟩ := answers_bind.mp h
    obtain ⟨_, _, hn, h⟩ := answers_bind.mp h
    obtain rfl := answers_inform.mp hn
    obtain ⟨rfl, rfl⟩ := answers_pure.mp h
    have hchained := hc.wallet_chainFirst rfl
    refine ⟨?_, ?_⟩
    · rw [hchained]
      exact hm
    · rw [hchained, hw]
      rfl

/-- A booking is answered, where the integers of its records and the places of the others can be
written. -/
theorem exists_answers_book {u : Unsigned} {txid : Bytes} {chain : Bool}
    (hr : ∀ r ∈ u.records txid, r.Writable) (hs : s.wallet.PlacesWritable) :
    ∃ cs t, Answers (book u txid chain) s cs t := by
  let kept : Session := { s with
    wallet := { s.wallet with utxos := s.wallet.utxos.filter fun v => !u.spends v.outpoint } }
  have hkept : kept.wallet.PlacesWritable := fun v hv => hs v (List.mem_of_mem_filter hv)
  obtain ⟨cs, r, hcs⟩ := exists_answers_recordOutputs hr hkept
  let cleared : Session := { r with wallet := { r.wallet with draft := {} } }
  have hlast : ∀ s, ∃ t, Answers (do inform (.finalized txid.hex); return cs) s cs t := fun s =>
    ⟨_, (answers_inform (u := ()).mpr rfl).bind (answers_pure.mpr ⟨rfl, rfl⟩)⟩
  have hend : ∃ t, Answers (do
      if chain then chainFirst cs
      inform (.finalized txid.hex)
      return cs) cleared cs t := by
    cases chain with
    | false => exact hlast cleared
    | true =>
      obtain ⟨r', hr'⟩ := exists_answers_chainFirst (s := cleared) cs
      obtain ⟨t, ht⟩ := hlast r'
      exact ⟨t, hr'.bind ht⟩
  obtain ⟨t, ht⟩ := hend
  have hforget : Answers (edit fun w =>
      { w with utxos := w.utxos.filter fun v => !u.spends v.outpoint }) s () kept :=
    answers_edit.mpr rfl
  have hclear : Answers (edit fun w => { w with draft := {} }) r () cleared := answers_edit.mpr rfl
  exact ⟨cs, t, hforget.bind (hcs.bind (hclear.bind ht))⟩

end Operation
end Taproot
